/-
**DHCP messages, and what the dissector reads of them.**

A DHCP message is a header of fixed length and an area of options, which ends at the end mark, at the
end of the packet, or at an option that was cut short.  Every area of options is of this form, so what
the dissector reads of it is said for all of them: it looks at the first 128 items, pad bytes included,
and of every option that has a column the last one counts.

Main definitions:

* `DhcpItem`, `DhcpItem.layout` — pad bytes and options, and how they are written;
* `DhcpMessage`, `DhcpMessage.bytes`, `DhcpMessage.columns` — messages, their bytes, and what the
  columns should hold.

Main results:

* `AppDhcp.optionLoop_eq` — the loop records the items of the area, one after the other;
* `AppDhcp.parse_inverts_encoding` — **the dissector inverts the encoding** of a message;
* `AppDhcp.exists_message` — what the dissector accepts is a message.
-/

import PcapRacer.AppDhcp
import PcapRacer.OptionArea
import PcapRacer.TextLossy
import PcapRacer.TlsHello
import PcapRacer.WireReads

set_option relaxedAutoImplicit false
set_option autoImplicit false

namespace PcapRacer

open AppDhcp (addressText msgTypeName)

/-! ### Items -/

/-- An item of the option area: a pad byte, or an option. -/
inductive DhcpItem where
  | pad
  | option (code : UInt8) (val : Bytes) (marked : code ≠ 0 ∧ code ≠ 255) (fits : val.length ≤ 255)

namespace DhcpItem

def bytes : DhcpItem → Bytes
  | pad => [0]
  | option code val _ _ => code :: UInt8.ofNat val.length :: val

/-- The first item of an area, and what stands behind it. -/
def front : Bytes → Option (DhcpItem × Bytes)
  | [] => none
  | code :: rest =>
      if hpad : code = 0 then some (pad, rest)
      else if hend : code = 255 then none
      else
        match rest with
        | [] => none
        | len :: rest =>
            if len.toNat ≤ rest.length then
              some (option code (rest.take len.toNat) ⟨hpad, hend⟩
                ((List.length_take_le _ _).trans (Nat.le_of_lt_succ len.toNat_lt)),
                rest.drop len.toNat)
            else none

theorem toNat_length {val : Bytes} (h : val.length ≤ 255) :
    (UInt8.ofNat val.length).toNat = val.length := by
  rw [UInt8.toNat_ofNat']
  omega

/-- How the option area is written and read. -/
def layout : OptionLayout UInt8 DhcpItem where
  bytes := bytes
  front := front
  bytes_ne_nil i := by cases i <;> simp [bytes]
  front_bytes i rest := by
    cases i with
    | pad => rfl
    | option code val marked fits =>
        simp only [bytes, List.cons_append, front, dif_neg marked.1, dif_neg marked.2,
          toNat_length fits]
        rw [if_pos (by rw [List.length_append]; omega)]
        simp only [List.take_left, List.drop_left]
  eq_of_front {area rest i} h := by
    unfold front at h
    split at h
    · cases h
    · next code tail =>
        split at h
        · next hpad =>
            cases h
            rw [hpad]
            rfl
        · split at h
          · cases h
          · split at h
            · cases h
            · next len val =>
                split at h
                · next hlen =>
                    cases h
                    rw [bytes, List.length_take, Nat.min_eq_left hlen, UInt8.ofNat_toNat,
                      List.cons_append, List.cons_append, List.take_append_drop]
                · cases h

/-- The text of an option with this code: null when it is empty. -/
def text? (n : ℕ) : DhcpItem → Option (Option Text)
  | pad => none
  | option code val _ _ => if code.toNat = n then some (asciiString val) else none

/-- The value of an option with this code, if it has four bytes. -/
def four? (n : ℕ) : DhcpItem → Option Bytes
  | pad => none
  | option code val _ _ => if code.toNat = n ∧ val.length = 4 then some val else none

/-- The message type. -/
def msgType? : DhcpItem → Option UInt8
  | pad => none
  | option code val _ _ => if code.toNat = 53 ∧ val.length = 1 then val.head? else none

/-- The parameter request list. -/
def params? : DhcpItem → Option Text
  | pad => none
  | option code val _ _ =>
      if code.toNat = 55 then
        some (cappedAscii (Text.join [','] (val.map fun x => Text.decimal x.toNat)) 512)
      else none

section Said

variable (n : ℕ) (code : UInt8) (val : Bytes) (marked : code ≠ 0 ∧ code ≠ 255)
  (fits : val.length ≤ 255)

@[simp] theorem text?_option : (option code val marked fits).text? n =
    if code.toNat = n then some (asciiString val) else none := rfl

@[simp] theorem four?_option : (option code val marked fits).four? n =
    if code.toNat = n ∧ val.length = 4 then some val else none := rfl

@[simp] theorem msgType?_option : (option code val marked fits).msgType? =
    if code.toNat = 53 ∧ val.length = 1 then val.head? else none := rfl

@[simp] theorem params?_option : (option code val marked fits).params? =
    if code.toNat = 55 then
      some (cappedAscii (Text.join [','] (val.map fun x => Text.decimal x.toNat)) 512)
    else none := rfl

end Said

/-- The texts of the item are short enough to be kept as they are. -/
def TextFits (i : DhcpItem) : Prop :=
  ∀ n ∈ [12, 15, 60], ∀ s, i.text? n = some (some s) → s.utf8Len ≤ 256

/-- What one item leaves in the columns. -/
def write (c : DhcpCols) (i : DhcpItem) : DhcpCols :=
  { c with
    dhcpHostname := (i.text? 12).getD c.dhcpHostname
    dhcpDomain := (i.text? 15).getD c.dhcpDomain
    dhcpVendorClass := (i.text? 60).getD c.dhcpVendorClass
    dhcpRequestedIp := ((i.four? 50).map addressText).or c.dhcpRequestedIp
    dhcpLeaseTime := ((i.four? 51).map fun v => UInt32.ofNat (beNat v)).or c.dhcpLeaseTime
    dhcpServerId := ((i.four? 54).map addressText).or c.dhcpServerId
    dhcpMsgType := i.msgType?.or c.dhcpMsgType
    dhcpMsgTypeName := (i.msgType?.map msgTypeName).or c.dhcpMsgTypeName
    dhcpFingerprint := i.params?.or c.dhcpFingerprint
    dhcpParamReqList := i.params?.or c.dhcpParamReqList }

open OptionLayout (lastSaid)

/-- **What a row of items leaves in the columns**: of every kind, what the last one says. -/
theorem foldl_write (items : List DhcpItem) (c : DhcpCols) :
    items.foldl write c =
      { c with
        dhcpHostname := (lastSaid (text? 12) items).getD c.dhcpHostname
        dhcpDomain := (lastSaid (text? 15) items).getD c.dhcpDomain
        dhcpVendorClass := (lastSaid (text? 60) items).getD c.dhcpVendorClass
        dhcpRequestedIp :=
          (lastSaid (fun i => (i.four? 50).map addressText) items).or c.dhcpRequestedIp
        dhcpLeaseTime := (lastSaid (fun i => (i.four? 51).map fun v => UInt32.ofNat (beNat v))
          items).or c.dhcpLeaseTime
        dhcpServerId := (lastSaid (fun i => (i.four? 54).map addressText) items).or c.dhcpServerId
        dhcpMsgType := (lastSaid msgType? items).or c.dhcpMsgType
        dhcpMsgTypeName :=
          (lastSaid (fun i => i.msgType?.map msgTypeName) items).or c.dhcpMsgTypeName
        dhcpFingerprint := (lastSaid params? items).or c.dhcpFingerprint
        dhcpParamReqList := (lastSaid params? items).or c.dhcpParamReqList } := by
  induction items using List.reverseRecOn with
  | nil => rfl
  | append_singleton items i ih =>
      rw [List.foldl_append, ih]
      simp only [List.foldl_cons, List.foldl_nil, write, OptionLayout.lastSaid_concat,
        OptionLayout.getD_or_getD, Option.or_assoc]

end DhcpItem

namespace AppDhcp

/-! ### The loop -/

/-- Record one item. -/
def recordItem : DhcpItem → M Unit
  | .pad => pure ()
  | .option code val _ _ => dhcpOption code val

/-- **The loop records the items of the area**, at most as many as its guard allows. -/
theorem optionLoop_eq (guard : ℕ) (c : Cur) :
    optionLoop guard c = (DhcpItem.layout.walk guard c.rest).forM recordItem := by
  induction guard generalizing c with
  | zero => rfl
  | succ guard ih =>
      rw [optionLoop, OptionLayout.walk, show DhcpItem.layout.front = DhcpItem.front from rfl]
      cases hrest : c.rest with
      | nil =>
          rw [Cur.u8_of_rest_nil hrest]
          rfl
      | cons code rest =>
          obtain ⟨c₁, hcode, hc₁⟩ := Cur.exists_u8 hrest
          rw [hcode, DhcpItem.front]
          dsimp only
          by_cases hpad : code = 0
          · rw [if_pos hpad, dif_pos hpad, ih, hc₁]
            rfl
          · by_cases hend : code = 255
            · rw [if_neg hpad, if_pos hend, dif_neg hpad, dif_pos hend]
              rfl
            · rw [if_neg hpad, if_neg hend, dif_neg hpad, dif_neg hend]
              cases rest with
              | nil =>
                  rw [Cur.u8_of_rest_nil hc₁]
                  rfl
              | cons len rest =>
                  obtain ⟨c₂, hlen, hc₂⟩ := Cur.exists_u8 hc₁
                  rw [hlen]
                  dsimp only
                  by_cases hfits : len.toNat ≤ rest.length
                  · obtain ⟨c₃, hval, hc₃⟩ := Cur.exists_take (n := len.toNat)
                      (hc₂.trans (List.take_append_drop len.toNat rest).symm)
                      (by rw [List.length_take, Nat.min_eq_left hfits])
                    rw [hval, if_pos hfits]
                    dsimp only
                    rw [ih, hc₃]
                    rfl
                  · have hcut : c₂.take len.toNat = .error .truncated :=
                      dif_neg (by rw [← Cur.length_rest, hc₂]; exact hfits)
                    rw [hcut, if_neg hfits]
                    rfl

/-- **Recording an item** whose texts fit. -/
theorem exec_recordItem {i : DhcpItem} (h : i.TextFits) (s : Sink DhcpCols) :
    (recordItem i).exec s = .ok (.ok (), { s with cols := DhcpItem.write s.cols i }) := by
  cases i with
  | pad => rfl
  | option code val marked fits =>
      have htext : ∀ n ∈ [12, 15, 60], code.toNat = n → valStr val = .ok (asciiString val) :=
        fun n hn hcode => mapM_cap_asciiString fun t ht => h n hn t (by simp [hcode, ht])
      rw [recordItem]
      unfold dhcpOption
      split
      · next hcode =>
          rw [htext 12 (by decide) hcode, exec_cap_bind rfl, exec_col]
          simp [DhcpItem.write, hcode]
      · next hcode =>
          rw [htext 15 (by decide) hcode, exec_cap_bind rfl, exec_col]
          simp [DhcpItem.write, hcode]
      · next hcode => by_cases hlen : val.length = 4 <;> simp [DhcpItem.write, hcode, hlen]
      · next hcode => by_cases hlen : val.length = 4 <;> simp [DhcpItem.write, hcode, hlen]
      · next hcode =>
          split
          · next t => simp [DhcpItem.write, hcode]
          · next hother =>
              have hlen : val.length ≠ 1 := fun hone => by
                obtain ⟨t, rfl⟩ := List.length_eq_one_iff.mp hone
                exact hother t rfl
              simp [DhcpItem.write, hcode, hlen]
      · next hcode => by_cases hlen : val.length = 4 <;> simp [DhcpItem.write, hcode, hlen]
      · next hcode =>
          have hascii : Text.IsAscii (Text.join [','] (val.map fun x => Text.decimal x.toNat)) := by
            refine Text.isAscii_join (Text.isAscii_singleton rfl) fun p hp => ?_
            obtain ⟨x, -, rfl⟩ := List.mem_map.mp hp
            exact Text.isAscii_decimal _
          rw [exec_cap_bind (cap_of_isAscii hascii 512), exec_col]
          simp [DhcpItem.write, hcode]
      · next hcode =>
          rw [htext 60 (by decide) hcode, exec_cap_bind rfl, exec_col]
          simp [DhcpItem.write, hcode]
      · next h12 h15 h50 h51 h53 h54 h55 h60 =>
          simp only [imp_false] at h12 h15 h50 h51 h53 h54 h55 h60
          simp [DhcpItem.write, h12, h15, h50, h51, h53, h54, h55, h60]

/-- Recording a row of items. -/
theorem exec_recordItems {items : List DhcpItem} (h : ∀ i ∈ items, i.TextFits) (s : Sink DhcpCols) :
    (items.forM recordItem).exec s =
      .ok (.ok (), { s with cols := items.foldl DhcpItem.write s.cols }) := by
  induction items generalizing s with
  | nil => rfl
  | cons i items ih =>
      rw [show (i :: items).forM recordItem = recordItem i >>= fun _ => items.forM recordItem from rfl,
        exec_bind, exec_recordItem (h i List.mem_cons_self)]
      exact ih (fun j hj => h j (List.mem_cons_of_mem _ hj)) _

end AppDhcp

/-! ### Messages -/

/-- A DHCP message.  The hardware address field, and the server name and file, are of fixed length; the
items of the option area stand before whatever ends it. -/
structure DhcpMessage where
  op : UInt8
  htype : UInt8
  hlen : UInt8
  hops : UInt8
  xid : UInt32
  secs : UInt16
  flags : UInt16
  ciaddr : UInt32
  yiaddr : UInt32
  siaddr : UInt32
  giaddr : UInt32
  chaddr : Bytes
  chaddr_length : chaddr.length = 16
  boot : Bytes
  boot_length : boot.length = 192
  items : List DhcpItem
  ending : Bytes
  ends : DhcpItem.layout.front ending = none

namespace DhcpMessage

variable (m : DhcpMessage)

def bytes : Bytes :=
  m.op :: m.htype :: m.hlen :: m.hops :: (beBytes 4 m.xid.toNat ++ (beBytes 2 m.secs.toNat ++
    (beBytes 2 m.flags.toNat ++ (beBytes 4 m.ciaddr.toNat ++ (beBytes 4 m.yiaddr.toNat ++
      (beBytes 4 m.siaddr.toNat ++ (beBytes 4 m.giaddr.toNat ++ (m.chaddr ++ (m.boot ++
        (beBytes 4 AppDhcp.magicCookie.toNat ++
          DhcpItem.layout.area m.items m.ending))))))))))

/-- The items that the dissector looks at. -/
def seen : List DhcpItem := m.items.take 128

open OptionLayout (lastSaid)

/-- What the columns should hold. -/
def columns (c : DhcpCols) : DhcpCols :=
  { c with
    dhcpOp := some m.op
    dhcpTransactionId := some m.xid
    dhcpClientIp := if m.ciaddr ≠ 0 then some (IpAddr.textV4 m.ciaddr) else c.dhcpClientIp
    dhcpYourIp := if m.yiaddr ≠ 0 then some (IpAddr.textV4 m.yiaddr) else c.dhcpYourIp
    dhcpClientMac := if m.hlen = 6 then some (fmtMac (m.chaddr.take 6)) else c.dhcpClientMac
    dhcpHostname := (lastSaid (DhcpItem.text? 12) m.seen).getD c.dhcpHostname
    dhcpDomain := (lastSaid (DhcpItem.text? 15) m.seen).getD c.dhcpDomain
    dhcpVendorClass := (lastSaid (DhcpItem.text? 60) m.seen).getD c.dhcpVendorClass
    dhcpRequestedIp :=
      (lastSaid (fun i => (i.four? 50).map addressText) m.seen).or c.dhcpRequestedIp
    dhcpLeaseTime := (lastSaid (fun i => (i.four? 51).map fun v => UInt32.ofNat (beNat v))
      m.seen).or c.dhcpLeaseTime
    dhcpServerId := (lastSaid (fun i => (i.four? 54).map addressText) m.seen).or c.dhcpServerId
    dhcpMsgType := (lastSaid DhcpItem.msgType? m.seen).or c.dhcpMsgType
    dhcpMsgTypeName :=
      (lastSaid (fun i => i.msgType?.map msgTypeName) m.seen).or c.dhcpMsgTypeName
    dhcpFingerprint := (lastSaid DhcpItem.params? m.seen).or c.dhcpFingerprint
    dhcpParamReqList := (lastSaid DhcpItem.params? m.seen).or c.dhcpParamReqList }

end DhcpMessage

namespace AppDhcp

/-- **The dissector inverts the encoding.**  Of every message whose texts are short enough to be kept
as they are, the columns hold the header fields, and of every option that has a column what the last
one of the first 128 items says; whatever ends the option area is ignored. -/
theorem parse_inverts_encoding (m : DhcpMessage) (htexts : ∀ i ∈ m.seen, i.TextFits)
    (s : Sink DhcpCols) :
    (parse m.bytes).exec s =
      .ok (.ok (), { stack := s.stack ++ [.dhcp], cols := m.columns s.cols }) := by
  obtain ⟨c₁, hop, hrest⟩ := Cur.exists_u8 (show (Cur.new m.bytes).rest = m.bytes from rfl)
  obtain ⟨c₂, hhtype, hrest⟩ := Cur.exists_u8 hrest
  obtain ⟨c₃, hhlen, hrest⟩ := Cur.exists_u8 hrest
  obtain ⟨c₄, hhops, hrest⟩ := Cur.exists_u8 hrest
  obtain ⟨c₅, hxid, hrest⟩ := Cur.exists_be32 hrest
  obtain ⟨c₆, hsecs, hrest⟩ := Cur.exists_word hrest
  obtain ⟨c₇, hflags, hrest⟩ := Cur.exists_word hrest
  obtain ⟨c₈, hciaddr, hrest⟩ := Cur.exists_ipv4 hrest
  obtain ⟨c₉, hyiaddr, hrest⟩ := Cur.exists_ipv4 hrest
  obtain ⟨c₁₀, hsiaddr, hrest⟩ := Cur.exists_ipv4 hrest
  obtain ⟨c₁₁, hgiaddr, hrest⟩ := Cur.exists_ipv4 hrest
  obtain ⟨c₁₂, hchaddr, hrest⟩ := Cur.exists_take hrest m.chaddr_length.symm
  obtain ⟨c₁₃, hboot, hrest⟩ := Cur.exists_skip (n := 64 + 128) hrest m.boot_length.symm
  obtain ⟨c₁₄, hcookie, hrest⟩ := Cur.exists_be32 hrest
  have hitems : DhcpItem.layout.walk 128 c₁₄.rest = m.seen := by
    rw [hrest]
    exact OptionLayout.walk_area m.items m.ends 128
  unfold parse
  rw [exec_bind, exec_layer]
  dsimp only
  rw [hop, exec_ok_bind]
  dsimp only
  rw [hhtype, exec_ok_bind]
  dsimp only
  rw [hhlen, exec_ok_bind]
  dsimp only
  rw [hhops, exec_ok_bind]
  dsimp only
  rw [hxid, exec_ok_bind]
  dsimp only
  rw [hsecs, exec_ok_bind]
  dsimp only
  rw [hflags, exec_ok_bind]
  dsimp only
  rw [hciaddr, exec_ok_bind]
  dsimp only
  rw [hyiaddr, exec_ok_bind]
  dsimp only
  rw [hsiaddr, exec_ok_bind]
  dsimp only
  rw [hgiaddr, exec_ok_bind]
  dsimp only
  rw [hchaddr, exec_ok_bind]
  dsimp only
  rw [exec_col_bind, exec_when_col, exec_when_col, exec_when_col, hboot,
    exec_ok_bind, hcookie, exec_ok_bind]
  dsimp only
  rw [if_neg (not_not.mpr rfl), optionLoop_eq, hitems, exec_recordItems htexts,
    DhcpItem.foldl_write, DhcpMessage.columns]
  dsimp only
  split_ifs <;> rfl

/-- **What the dissector accepts is a message.** -/
theorem exists_message {payload : Bytes} {s s' : Sink DhcpCols}
    (h : (parse payload).exec s = .ok (.ok (), s')) : ∃ m : DhcpMessage, payload = m.bytes := by
  unfold parse at h
  rw [exec_bind, exec_layer] at h
  obtain ⟨⟨op, c₁⟩, hop, h⟩ := exists_of_exec_read h
  obtain ⟨⟨htype, c₂⟩, hhtype, h⟩ := exists_of_exec_read h
  obtain ⟨⟨hlen, c₃⟩, hhlen, h⟩ := exists_of_exec_read h
  obtain ⟨⟨hops, c₄⟩, hhops, h⟩ := exists_of_exec_read h
  obtain ⟨⟨xid, c₅⟩, hxid, h⟩ := exists_of_exec_read h
  obtain ⟨⟨secs, c₆⟩, hsecs, h⟩ := exists_of_exec_read h
  obtain ⟨⟨flags, c₇⟩, hflags, h⟩ := exists_of_exec_read h
  obtain ⟨⟨ciaddr, c₈⟩, hciaddr, h⟩ := exists_of_exec_read h
  obtain ⟨⟨yiaddr, c₉⟩, hyiaddr, h⟩ := exists_of_exec_read h
  obtain ⟨⟨siaddr, c₁₀⟩, hsiaddr, h⟩ := exists_of_exec_read h
  obtain ⟨⟨giaddr, c₁₁⟩, hgiaddr, h⟩ := exists_of_exec_read h
  obtain ⟨⟨chaddr, c₁₂⟩, hchaddr, h⟩ := exists_of_exec_read h
  dsimp only at h
  rw [exec_col_bind, exec_when_col, exec_when_col, exec_when_col] at h
  obtain ⟨c₁₃, hboot, h⟩ := exists_of_exec_read h
  obtain ⟨⟨cookie, c₁₄⟩, hcookie, h⟩ := exists_of_exec_read h
  obtain ⟨hmagic, -⟩ := exec_unless_giveUp h
  obtain ⟨hrest₁₂, hchaddrLen⟩ := Ber.rest_of_take hchaddr
  obtain ⟨boot, hbootLen, hrest₁₃⟩ := Cur.rest_of_skip hboot
  obtain ⟨items, ending, harea, hends⟩ := DhcpItem.layout.exists_area c₁₄.rest
  refine ⟨{ op, htype, hlen, hops, xid, secs, flags, ciaddr, yiaddr, siaddr, giaddr, chaddr,
            chaddr_length := hchaddrLen, boot, boot_length := hbootLen, items, ending,
            ends := hends }, ?_⟩
  rw [DhcpMessage.bytes, ← harea, ← not_not.mp hmagic, ← Cur.rest_of_be32 hcookie, ← hrest₁₃,
    ← hrest₁₂, ← Cur.rest_of_ipv4 hgiaddr, ← Cur.rest_of_ipv4 hsiaddr, ← Cur.rest_of_ipv4 hyiaddr,
    ← Cur.rest_of_ipv4 hciaddr, ← Cur.rest_of_be16 hflags, ← Cur.rest_of_be16 hsecs,
    ← Cur.rest_of_be32 hxid, ← Ber.rest_of_u8 hhops, ← Ber.rest_of_u8 hhlen,
    ← Ber.rest_of_u8 hhtype, ← Ber.rest_of_u8 hop]
  rfl

/-- **DHCP messages are read back, and nothing else is accepted.**  Of every message, whatever its
options and whatever ends them, the columns hold the header fields, and of every option that has a
column what the last one of the first 128 items says, as long as the texts among them need no cut; and
every payload that the dissector accepts is such a message. -/
theorem messages_read_back :
    (∀ (m : DhcpMessage) (s : Sink DhcpCols), (∀ i ∈ m.seen, i.TextFits) →
      (parse m.bytes).exec s =
        .ok (.ok (), { stack := s.stack ++ [.dhcp], cols := m.columns s.cols })) ∧
    ∀ (payload : Bytes) (s s' : Sink DhcpCols),
      (parse payload).exec s = .ok (.ok (), s') → ∃ m : DhcpMessage, payload = m.bytes :=
  ⟨fun m s htexts => parse_inverts_encoding m htexts s, fun _ _ _ h => exists_message h⟩

/-- A discover message with two host names, the later one empty. -/
def discover : DhcpMessage where
  op := 1
  htype := 1
  hlen := 6
  hops := 0
  xid := 0x3903f326
  secs := 0
  flags := 0
  ciaddr := 0
  yiaddr := 0x0a000005
  siaddr := 0
  giaddr := 0
  chaddr := [0x00, 0x0b, 0x82, 0x01, 0xfc, 0x42] ++ List.replicate 10 0
  chaddr_length := rfl
  boot := List.replicate 192 0
  boot_length := List.length_replicate
  items := [.option 53 [1] (by decide) (by decide), .option 12 [0x70, 0x63] (by decide) (by decide),
    .pad, .option 55 [1, 3, 6] (by decide) (by decide), .option 12 [] (by decide) (by decide)]
  ending := [255, 1, 2]
  ends := rfl

theorem messages_read_back_discover :
    (parse discover.bytes).exec { stack := [], cols := {} } =
        .ok (.ok (), { stack := [.dhcp], cols := discover.columns {} }) ∧
      (discover.columns {}).dhcpFingerprint = some "1,3,6".toList ∧
      (discover.columns {}).dhcpHostname = none := by
  refine ⟨messages_read_back.1 discover { stack := [], cols := {} } ?_, rfl, rfl⟩
  intro i hi n hn t ht
  have hshort : ∀ i ∈ discover.seen, ∀ n ∈ [12, 15, 60], ∀ t ∈ (i.text? n).join,
      t.utf8Len ≤ 256 := by decide
  exact hshort i hi n hn t (by rw [ht]; rfl)

end AppDhcp

end PcapRacer
