/-
**The rows of two bind requests that differ in the password.**

The LDAP dissector leaves the password of a simple bind alone, but the columns that describe the
payload of any segment do not: they show its first sixteen bytes, and a rendering of its first
ninety-six.  So the strings and the binaries of the two rows are the same exactly when these do not
tell the passwords apart.

Main definitions:

* `Packet.texts` — the strings and the binaries of a row;
* `DifferInPassword` — two frames that are the same but for the password;
* `Continues` — the frame is the next segment of a stream of LDAP messages;
* `Requests.Hidden` — the shown bytes do not tell the passwords apart.

Main results:

* `texts_payload_iff` — when the texts of two rows with different payload columns agree;
* `bind_texts_iff` — **the texts of the two rows agree exactly when the passwords are hidden**;
* `bindRequest_shows_password` — a bind request that shows its password.
-/

import PcapRacer.DeferredDispatch
import PcapRacer.HeaderReach
import PcapRacer.LdapCalm
import PcapRacer.WideSchema

set_option relaxedAutoImplicit false
set_option autoImplicit false

namespace PcapRacer

open AppDirectory (Message Requests)

/-! ### Strings and binaries -/

/-- The value when it is a string or a binary. -/
def Value.text? : Value → Option Value
  | .str v => some (.str v)
  | .bin v => some (.bin v)
  | _ => none

/-- The text that a column shows of a row. -/
def WideColumn.text? (row : Packet) (col : WideColumn) : Option Value :=
  (col.cell row).bind Value.text?

/-- The strings and the binaries of a row, in schema order. -/
def Packet.texts (row : Packet) : List (Option Value) := wideColumns.map (WideColumn.text? row)

section Texts

variable (row : Packet) (payload : PayloadCols) (reasm : ReasmCols)

/-- A number and a Boolean show no text. -/
theorem text?_map {α : Type} {f : α → Value} (h : ∀ a, (f a).text? = none) (x : Option α) :
    (x.map f).bind Value.text? = none := by
  cases x with
  | none => rfl
  | some a => exact h a

/-- A string and a binary show themselves. -/
theorem text?_map_inj {α : Type} {f : α → Value} (h : ∀ a, (f a).text? = some (f a))
    (hf : Function.Injective f) {x y : Option α} :
    (x.map f).bind Value.text? = (y.map f).bind Value.text? ↔ x = y := by
  have hself : ∀ z : Option α, (z.map f).bind Value.text? = z.map f := by
    intro z
    cases z with
    | none => rfl
    | some a => exact h a
  rw [hself, hself, (Option.map_injective hf).eq_iff]

/-- Two columns show a text of the payload. -/
theorem payloadColumns_text? :
    payloadColumns.map (WideColumn.text? { row with payload, reasm }) =
        payloadColumns.map (WideColumn.text? row) ↔
      payload.payloadPreview = row.payload.payloadPreview ∧
        payload.payloadFirstBytes = row.payload.payloadFirstBytes := by
  have hcells : ∀ q : Packet, payloadColumns.map (WideColumn.text? q) =
      [none, none, (q.payload.payloadPreview.map .str).bind Value.text?,
        (q.payload.payloadFirstBytes.map .bin).bind Value.text?, none] := by
    intro q
    have hlen := text?_map (f := .u32) (fun _ => rfl) q.payload.payloadLen
    have hentropy := text?_map (f := .f64) (fun _ => rfl) q.payload.payloadEntropy
    have hprintable := text?_map (f := .bool) (fun _ => rfl) q.payload.payloadIsPrintable
    exact congrArg₂ _ hlen (congrArg₂ _ hentropy
      (congrArg _ (congrArg _ (congrArg (· :: []) hprintable))))
  have hstr := text?_map_inj (f := .str) (fun _ => rfl) (fun _ _ => Value.str.inj)
    (x := payload.payloadPreview) (y := row.payload.payloadPreview)
  have hbin := text?_map_inj (f := .bin) (fun _ => rfl) (fun _ _ => Value.bin.inj)
    (x := payload.payloadFirstBytes) (y := row.payload.payloadFirstBytes)
  rw [hcells, hcells, ← hstr, ← hbin]
  simp

/-- The payload lengths of the transport layer show no text. -/
theorem l4Columns_text? : l4Columns.map (WideColumn.text? { row with payload, reasm }) =
    l4Columns.map (WideColumn.text? row) := by
  have hlen : ∀ x : Option UInt32, (x.map Value.u32).bind Value.text? = none :=
    text?_map fun _ => rfl
  simp only [l4Columns, WideColumn.text?, WideColumn.u32, hlen, List.map_cons]
  rfl

theorem reassemblyColumns_text? :
    reassemblyColumns.map (WideColumn.text? { row with payload, reasm }) =
      reassemblyColumns.map (WideColumn.text? row) := by
  have hbool : ∀ x : Option Bool, (x.map Value.bool).bind Value.text? = none :=
    text?_map fun _ => rfl
  simp only [reassemblyColumns, WideColumn.text?, WideColumn.bool, hbool, List.map_cons,
    List.map_nil]

/-- **When the texts of two rows agree** that differ in what they say about the payload and about
reassembly: two columns decide. -/
theorem texts_payload_iff : ({ row with payload, reasm } : Packet).texts = row.texts ↔
    payload.payloadPreview = row.payload.payloadPreview ∧
      payload.payloadFirstBytes = row.payload.payloadFirstBytes := by
  have hsame : ∀ cols : List WideColumn, cols.map (WideColumn.text? { row with payload, reasm }) =
      cols.map (WideColumn.text? row) → ∀ col ∈ cols,
        WideColumn.text? { row with payload, reasm } col = WideColumn.text? row col :=
    fun _ => List.map_inj_left.mp
  unfold Packet.texts
  rw [List.map_inj_left]
  constructor
  · intro h
    refine (payloadColumns_text? row payload reasm).mp (List.map_inj_left.mpr fun col hcol => ?_)
    exact h col (List.mem_append_left _ (List.mem_append_right _ hcol))
  · intro h
    have hpayload := hsame _ ((payloadColumns_text? row payload reasm).mpr h)
    have hl4 := hsame _ (l4Columns_text? row payload reasm)
    have hreasm := hsame _ (reassemblyColumns_text? row payload reasm)
    unfold wideColumns
    simp only [List.forall_mem_append, and_assoc]
    exact ⟨hsame frameColumns rfl, hsame l2Columns rfl, hsame l3Columns rfl, hl4,
      hsame tunnelColumns rfl, hsame flowColumns rfl, hsame dnsColumns rfl, hsame httpColumns rfl,
      hsame tlsColumns rfl, hsame quicColumns rfl, hsame dhcpColumns rfl, hsame smbColumns rfl,
      hsame sshColumns rfl, hsame ntpColumns rfl, hsame textColumns rfl, hsame directoryColumns rfl,
      hsame remoteColumns rfl, hsame nameColumns rfl, hsame vpnColumns rfl, hsame icsColumns rfl,
      hpayload, hreasm⟩

end Texts

/-! ### Two frames -/

/-- Two packets of one record, but for the bytes. -/
structure SameRecord (o o' : Owned) : Prop where
  tsNs : o'.tsNs = o.tsNs
  capLen : o'.capLen = o.capLen
  origLen : o'.origLen = o.origLen
  ifaceId : o'.ifaceId = o.ifaceId
  linktype : o'.linktype = o.linktype
  truncated : o'.truncated = o.truncated

theorem SameRecord.refl (o : Owned) : SameRecord o o := ⟨rfl, rfl, rfl, rfl, rfl, rfl⟩

theorem SameRecord.frameCols {o o' : Owned} (h : SameRecord o o') :
    PcapRacer.frameCols o' = PcapRacer.frameCols o := by
  unfold PcapRacer.frameCols
  rw [h.tsNs, h.capLen, h.origLen, h.ifaceId, h.truncated]

/-- The first frame carries a simple bind on the LDAP port, and the second one is the same but for
the password. -/
structure DifferInPassword (o o' : Owned) (p : Payload) (c : Cur) (r : Requests)
    (pw pw' : r.bind.Password) : Prop where
  ends : EndsAtTcp o p c
  port : App.OnLdapPort p.sport p.dport
  payload : c.rest = Requests.payload pw
  record : SameRecord o o'
  data : o'.data = o.data.take c.start ++ (Requests.payload pw' ++ o.data.drop c.stop)

/-- The frame is the next segment of a stream of LDAP messages, and is not a fragment. -/
structure Continues (e : Engine) (o : Owned) (c : Cur) (t : Tuple) : Prop where
  whole : (frameJourney o).frag = none
  tuple : (frameJourney o).hdr.tuple = some t
  atEnd : PayloadAtEnd o c
  inOrder : e.streams.InOrder (tcpSegment o t c)
  messages : ∃ ms : List Message,
    (e.streams.entry (Engine.streamKey t)).buf = (ms.map (·.frame.bytes)).flatten

namespace DifferInPassword

variable {o o' : Owned} {p : Payload} {c : Cur} {r : Requests} {pw pw' : r.bind.Password}

theorem length_payload (h : DifferInPassword o o' p c r pw pw') :
    (Requests.payload pw').length = c.remaining := by
  rw [Requests.length_payload, ← Requests.length_payload pw, ← h.payload, Cur.length_rest]

theorem length_take (h : DifferInPassword o o' p c r pw pw') :
    (o.data.take c.start).length = c.start := by
  have hstop := h.ends.stop_le
  have hsum := c.start_add_remaining
  rw [List.length_take]
  omega

theorem length_data (h : DifferInPassword o o' p c r pw pw') :
    o'.data.length = o.data.length := by
  have hstop := h.ends.stop_le
  have hsum := c.start_add_remaining
  rw [h.data, List.length_append, h.length_take, List.length_append, h.length_payload,
    List.length_drop]
  omega

/-- **The walk of the second frame ends at its payload**, and has seen the same headers. -/
theorem sameWalk (h : DifferInPassword o o' p c r pw pw') :
    ∃ c', SameWalk o o' p c c' ∧ c'.rest = Requests.payload pw' := by
  have hsame : o'.data.take c.start = o.data.take c.start := by
    rw [h.data, List.take_left' h.length_take]
  obtain ⟨c', hwalk⟩ := h.ends.alike h.record.linktype h.record.ifaceId h.length_data hsame
  refine ⟨c', hwalk, ?_⟩
  rw [hwalk.ends.rest_eq, ← hwalk.alike.start, ← hwalk.alike.remaining, h.data,
    List.drop_left' h.length_take, List.take_left' h.length_payload]

/-- The second frame is a segment of the stream as well. -/
theorem continues (h : DifferInPassword o o' p c r pw pw') {e : Engine} {t : Tuple} {c' : Cur}
    (he : Continues e o c t) (hwalk : SameWalk o o' p c c') : Continues e o' c' t where
  whole := by
    have hnone := hwalk.frag
    rw [he.whole] at hnone
    exact Option.not_isSome_iff_eq_none.mp (by rw [hnone]; decide)
  tuple := hwalk.hdr ▸ he.tuple
  atEnd := by
    have hstart := hwalk.alike.start
    have hremaining := hwalk.alike.remaining
    have hstop : c'.stop = c.stop := by
      rw [← Cur.start_add_remaining, ← Cur.start_add_remaining, hstart, hremaining]
    unfold PayloadAtEnd
    rw [hstop, ← hstart, ← hremaining, h.length_data]
    exact he.atEnd
  inOrder := by
    have hlen : c'.rest.length = c.rest.length := by
      rw [Cur.length_rest, Cur.length_rest, hwalk.alike.remaining]
    obtain ⟨hadmits, hnext, hheld, hroom⟩ := he.inOrder
    have hseq : (tcpSegment o' t c').seq = (tcpSegment o t c).seq := by
      unfold tcpSegment
      dsimp only
      rw [hwalk.hdr]
    refine ⟨hadmits, hseq ▸ hnext, hheld, ?_⟩
    change (e.streams.entry (Engine.streamKey t)).buf.length + c'.rest.length ≤ e.streams.maxBytes
    rw [hlen]
    exact hroom
  messages := he.messages

end DifferInPassword

/-! ### What the serial phase adds -/

/-- The row with other payload and reassembly columns. -/
def Packet.retold (row : Packet) (payload : PayloadCols) (reasm : ReasmCols) : Packet :=
  { row with payload, reasm }

/-- What the row says about reassembly. -/
def reasmCols (q : Reassembled) : ReasmCols :=
  { reassembled := some q.multiSegment, reassemblyPartial := some q.isPartial }

section Serial

variable [Hashes]

/-- The packet after it joined the flow of its tuple. -/
def joined (e : Engine) (tuple : Option Tuple) (o : Owned) (pkt : Packet) : Packet :=
  match tuple with
  | none => pkt
  | some t => (e.flows.observe t pkt o.tsNs (e.nextPacketId + 1) o.origLen.toUInt64).2

theorem joined_retold (e : Engine) (tuple : Option Tuple) {o o' : Owned} (h : SameRecord o o')
    (pkt : Packet) (payload : PayloadCols) (reasm : ReasmCols) :
    joined e tuple o' (pkt.retold payload reasm) =
      (joined e tuple o pkt).retold payload reasm := by
  cases tuple with
  | none => rfl
  | some t =>
      unfold joined
      dsimp only
      rw [h.tsNs, h.origLen]
      unfold FlowTable.observe
      dsimp only
      split <;> rfl

theorem map_joined_retold (e : Engine) (tuple : Option Tuple) {o o' : Owned} (h : SameRecord o o')
    (x : Except Panic Packet) (payload : PayloadCols) (reasm : ReasmCols) :
    (x.map fun row => row.retold payload reasm).map (joined e tuple o') =
      (x.map (joined e tuple o)).map fun row => row.retold payload reasm := by
  cases x with
  | error _ => rfl
  | ok pkt => exact congrArg Except.ok (joined_retold e tuple h pkt payload reasm)

/-- Without reassembly, a packet without a payload range joins its flow, and that is all. -/
theorem step_row_direct {e : Engine} {o : Owned} (he : e.reassemble = false)
    (hrange : (dissectOne o false).tcpPayload = none) :
    (Engine.step false e o).map Prod.snd =
      .ok (joined e (dissectOne o false).tuple o (e.numbered (dissectOne o false).pkt)) := by
  unfold Engine.step Engine.absorbOne
  rw [he, hrange, if_neg (by decide)]
  have hor : ∀ t : Option Tuple, t.or none = t := fun t => Option.or_none
  simp only [Engine.fragmentPass, bind_of_ok rfl, hor]
  cases (dissectOne o false).tuple <;> rfl

/-- Dissecting the same bytes onto a packet with other payload columns. -/
theorem dissectStream_retold (pkt : Packet) (payload : PayloadCols) {q q' : Reassembled}
    (hne : q.data ≠ []) (hne' : q'.data ≠ [])
    (h : ∀ s, App.identify q'.data (pkt.transport.srcPort.getD 0) (pkt.transport.dstPort.getD 0) true
      s = App.identify q.data (pkt.transport.srcPort.getD 0) (pkt.transport.dstPort.getD 0) true s) :
    Engine.dissectStream { pkt with payload } q' =
      (Engine.dissectStream pkt q).map fun row => row.retold payload (reasmCols q') := by
  have hid := h { stack := [], cols := pkt.app }
  unfold Engine.dissectStream dispatch
  dsimp only
  rw [if_neg (by simp [hne']), if_neg (by simp [hne]), hid]
  cases App.identify q.data (pkt.transport.srcPort.getD 0) (pkt.transport.dstPort.getD 0) true
      { stack := [], cols := pkt.app } with
  | error _ => rfl
  | ok s =>
      refine congrArg Except.ok ?_
      unfold Engine.spliceStack
      split <;> rfl

/-! ### Both rows -/

/-- The two rows are the same, but for the payload and the reassembly columns. -/
def Retells (payload payload' : PayloadCols) (x x' : Except Panic Packet) : Prop :=
  ∃ (core : Except Panic Packet) (reasm reasm' : ReasmCols),
    x = core.map (fun row => row.retold payload reasm) ∧
      x' = core.map fun row => row.retold payload' reasm'

/-- A segment of a stream of messages gets the row of what its stream holds. -/
theorem step_row_continues {o : Owned} {p : Payload} {c : Cur} (hends : EndsAtTcp o p c)
    (hne : c.rest ≠ []) {e : Engine} {t : Tuple} (he : Continues e o c t) :
    ∃ q : Reassembled, q.data = (e.streams.entry (Engine.streamKey t)).buf ++ c.rest ∧
      (Engine.step true e o).map Prod.snd =
        (Engine.dissectStream (e.numbered (summary o true (.ok ()) (tcpCtx o c)).pkt) q).map
          (joined e (some t) o) := by
  have hone := dissectOne_of_deferred hends
  have hfrag : (dissectOne o true).frag = none := by rw [hone]; exact he.whole
  have htuple : (dissectOne o true).tuple = some t := by rw [hone]; exact he.tuple
  have hseg := segmentOf_of_atEnd hends hne he.atEnd
  have hdata := reassembled_tcpSegment hends e t
  rw [Engine.dissectedData_of_inOrder hne he.inOrder] at hdata
  refine ⟨_, hdata, ?_⟩
  rw [step_row_of_whole hfrag htuple hseg, hone]
  rfl

namespace DifferInPassword

variable {o o' : Owned} {p : Payload} {c : Cur} {r : Requests} {pw pw' : r.bind.Password}

/-- Without reassembly the two rows differ in the payload columns, unless the dissector panics. -/
theorem rows_direct (h : DifferInPassword o o' p c r pw pw') {e : Engine}
    (he : e.reassemble = false) :
    Retells (payloadCols true (Requests.payload pw) {}) (payloadCols true (Requests.payload pw') {})
        ((Engine.step false e o).map Prod.snd) ((Engine.step false e o').map Prod.snd) ∨
      (Engine.step false e o).map Prod.snd = (Engine.step false e o').map Prod.snd ∧
        ∃ q, App.identify (Requests.payload pw) p.sport p.dport true { stack := [], cols := {} } =
          .error q := by
  obtain ⟨c', hwalk, hrest'⟩ := h.sameWalk
  have hfirst := dissectInner_of_direct h.ends (h.payload ▸ Requests.payload_ne_nil pw)
  have hfirst' := dissectInner_of_direct hwalk.ends (hrest' ▸ Requests.payload_ne_nil pw')
  rw [h.payload] at hfirst
  rw [hrest', ← App.identify_requests pw pw' h.port] at hfirst'
  cases hid : App.identify (Requests.payload pw) p.sport p.dport true { stack := [], cols := {} } with
  | error q =>
      rw [hid] at hfirst hfirst'
      have hone : dissectOne o false = panickedPacket o := by
        unfold dissectOne
        rw [hfirst]
        rfl
      have hone' : dissectOne o' false = panickedPacket o' := by
        unfold dissectOne
        rw [hfirst']
        rfl
      refine .inr ⟨?_, q, rfl⟩
      rw [step_row_direct he (by rw [hone]; rfl), step_row_direct he (by rw [hone']; rfl), hone,
        hone']
      refine congrArg Except.ok ?_
      have hpkt : (panickedPacket o').pkt = (panickedPacket o).pkt := by
        unfold panickedPacket
        rw [h.record.frameCols]
      rw [hpkt]
      rfl
  | ok s =>
      rw [hid] at hfirst hfirst'
      have hone : dissectOne o false = summary o false (.ok ()) (dispatchedCtx o c s) := by
        unfold dissectOne
        rw [hfirst]
        rfl
      have hone' : dissectOne o' false = summary o' false (.ok ()) (dispatchedCtx o' c' s) := by
        unfold dissectOne
        rw [hfirst']
        rfl
      have htuple : (dissectOne o' false).tuple = (dissectOne o false).tuple := by
        rw [hone, hone']
        exact congrArg Hdr.tuple hwalk.hdr
      have hpkt : (dissectOne o' false).pkt =
          (dissectOne o false).pkt.retold (payloadCols true (Requests.payload pw') {}) {} := by
        rw [hone, hone', ← hrest']
        unfold dispatchedCtx frameCtx
        rw [hwalk.hdr, h.record.frameCols, h.record.linktype]
        rfl
      have hself : (dissectOne o false).pkt =
          (dissectOne o false).pkt.retold (payloadCols true (Requests.payload pw) {}) {} := by
        rw [hone, ← h.payload]
        rfl
      refine .inl ⟨.ok (joined e (dissectOne o false).tuple o (e.numbered (dissectOne o false).pkt)),
        {}, {}, ?_, ?_⟩
      · rw [step_row_direct he (by rw [hone]; rfl)]
        refine congrArg Except.ok ?_
        have hnumbered := congrArg (fun pkt => joined e (dissectOne o false).tuple o
          (e.numbered pkt)) hself
        exact hnumbered.trans (joined_retold e _ (.refl o) (e.numbered (dissectOne o false).pkt) _ _)
      · rw [step_row_direct he (by rw [hone']; rfl), htuple, hpkt]
        refine congrArg Except.ok ?_
        exact joined_retold e _ h.record (e.numbered (dissectOne o false).pkt) _ _

/-- With reassembly the two rows differ in the payload and the reassembly columns. -/
theorem rows_deferred (h : DifferInPassword o o' p c r pw pw') {e : Engine} {t : Tuple}
    (he : Continues e o c t) :
    Retells (payloadCols true (Requests.payload pw) {}) (payloadCols true (Requests.payload pw') {})
      ((Engine.step true e o).map Prod.snd) ((Engine.step true e o').map Prod.snd) := by
  obtain ⟨c', hwalk, hrest'⟩ := h.sameWalk
  have hne : c.rest ≠ [] := h.payload ▸ Requests.payload_ne_nil pw
  have hne' : c'.rest ≠ [] := hrest' ▸ Requests.payload_ne_nil pw'
  obtain ⟨q, hdata, hrow⟩ := step_row_continues h.ends hne he
  obtain ⟨q', hdata', hrow'⟩ := step_row_continues hwalk.ends hne' (h.continues he hwalk)
  obtain ⟨ms, hms⟩ := he.messages
  let pkt := e.numbered (summary o true (.ok ()) (tcpCtx o c)).pkt
  -- the streams hold requests that differ in the password
  have hdispatch : ∀ s, App.identify q'.data p.sport p.dport true s =
      App.identify q.data p.sport p.dport true s := by
    intro s
    rw [hdata, hdata', hms, h.payload, hrest', ← Requests.payload_behind pw ms,
      ← Requests.payload_behind pw' ms]
    exact App.identify_requests (r := r.behind ms) pw' pw h.port s
  have hsport : pkt.transport.srcPort.getD 0 = p.sport := h.ends.ports.1
  have hdport : pkt.transport.dstPort.getD 0 = p.dport := h.ends.ports.2
  have hqne : q.data ≠ [] := hdata ▸ List.append_ne_nil_of_right_ne_nil _ hne
  have hqne' : q'.data ≠ [] := hdata' ▸ List.append_ne_nil_of_right_ne_nil _ hne'
  have hpkt : e.numbered (summary o' true (.ok ()) (tcpCtx o' c')).pkt =
      { pkt with payload := payloadCols true (Requests.payload pw') {} } := by
    rw [← hrest']
    unfold tcpCtx frameCtx
    rw [hwalk.hdr, h.record.frameCols, h.record.linktype]
    rfl
  have hself : pkt = { pkt with payload := payloadCols true (Requests.payload pw) {} } := by
    rw [← h.payload]
    rfl
  have hstream := dissectStream_retold pkt (payloadCols true (Requests.payload pw) {}) hqne hqne
    fun _ => rfl
  have hstream' := dissectStream_retold pkt (payloadCols true (Requests.payload pw') {}) hqne hqne'
    (by rw [hsport, hdport]; exact hdispatch)
  rw [← hself] at hstream
  rw [← hpkt] at hstream'
  refine ⟨(Engine.dissectStream pkt q).map (joined e (some t) o), reasmCols q, reasmCols q', ?_, ?_⟩
  · rw [hrow, ← map_joined_retold e (some t) (.refl o), ← hstream]
  · rw [hrow', hstream', map_joined_retold e (some t) h.record]

end DifferInPassword

end Serial

/-! ### When the rows agree -/

namespace Retells

variable {payload payload' : PayloadCols} {x x' : Except Panic Packet} {row row' : Packet}

/-- Two columns tell the rows apart. -/
theorem texts_iff (h : Retells payload payload' x x') (hx : x = .ok row) (hx' : x' = .ok row') :
    row.texts = row'.texts ↔ payload.payloadPreview = payload'.payloadPreview ∧
      payload.payloadFirstBytes = payload'.payloadFirstBytes := by
  obtain ⟨core, reasm, reasm', hcore, hcore'⟩ := h
  obtain ⟨pkt, rfl, hrow⟩ := map_eq_ok_iff.mp (hcore.symm.trans hx)
  obtain ⟨pkt', hpkt', hrow'⟩ := map_eq_ok_iff.mp (hcore'.symm.trans hx')
  cases hpkt'
  rw [← hrow, ← hrow']
  exact texts_payload_iff (pkt.retold payload' reasm') payload reasm

end Retells

namespace AppDirectory.Requests

variable {r : Requests}

/-- The shown bytes do not tell the passwords apart: neither the password bytes among the first
sixteen of the payload, nor the rendering of those among the first ninety-six. -/
def Hidden (r : Requests) (pw pw' : r.bind.Password) : Prop :=
  pw.1.take (16 - r.before.length) = pw'.1.take (16 - r.before.length) ∧
    preview pw.1 (96 - r.before.length) = preview pw'.1 (96 - r.before.length)

/-- A password far from the beginning of the payload is hidden. -/
theorem hidden_of_far (pw pw' : r.bind.Password) (h : 96 ≤ r.before.length) : r.Hidden pw pw' := by
  unfold Hidden preview
  rw [Nat.sub_eq_zero_of_le h, Nat.sub_eq_zero_of_le (by omega)]
  exact ⟨rfl, rfl⟩

/-- Two stretches with the same beginning and the same end agree up to a place exactly when what
stands between does. -/
theorem map_take_append_iff {α : Type} (f : UInt8 → α) {a x x' b : Bytes}
    (hlen : x.length = x'.length) (n : ℕ) :
    ((a ++ (x ++ b)).take n).map f = ((a ++ (x' ++ b)).take n).map f ↔
      (x.take (n - a.length)).map f = (x'.take (n - a.length)).map f := by
  simp only [List.take_append, List.map_append, hlen, List.append_cancel_left_eq,
    List.append_cancel_right_eq]

/-- **What two columns show of the payload** tells the passwords apart, or does not. -/
theorem hidden_iff (pw pw' : r.bind.Password) :
    (payloadCols true (payload pw) {}).payloadPreview =
          (payloadCols true (payload pw') {}).payloadPreview ∧
        (payloadCols true (payload pw) {}).payloadFirstBytes =
          (payloadCols true (payload pw') {}).payloadFirstBytes ↔ r.Hidden pw pw' := by
  have hcols : ∀ q : r.bind.Password,
      (payloadCols true (payload q) {}).payloadPreview = some (preview (payload q) 96) ∧
        (payloadCols true (payload q) {}).payloadFirstBytes = some ((payload q).take 16) := by
    intro q
    unfold payloadCols recordPayload
    dsimp only
    rw [if_neg (payload_ne_nil q)]
    exact ⟨rfl, rfl⟩
  have hlen : pw.1.length = pw'.1.length := pw.2.trans pw'.2.symm
  have hfirst := map_take_append_iff (a := r.before) (b := r.after) id hlen 16
  simp only [List.map_id] at hfirst
  rw [(hcols pw).1, (hcols pw).2, (hcols pw').1, (hcols pw').2, Option.some_inj, Option.some_inj,
    payload_eq, payload_eq, hfirst]
  unfold Hidden preview
  rw [map_take_append_iff _ hlen, and_comm]

end AppDirectory.Requests

section Rows

variable [Hashes]

/-- On the LDAP port, dispatch panics only when the password is far from the beginning. -/
theorem far_of_identify {r : Requests} {pw : r.bind.Password} {sport dport : UInt16}
    (hport : App.OnLdapPort sport dport) {s : Sink AppCols} {q : Panic}
    (h : App.identify (Requests.payload pw) sport dport true s = .error q) :
    128 < r.before.length := by
  rw [App.identify_ldap hport (Requests.accepts_ldap pw)] at h
  have hexec := map_eq_error_iff.mp h
  exact Requests.far_of_panic (map_eq_error_iff.mp hexec)

/-- **The texts of the two rows agree exactly when the passwords are hidden.**  Without reassembly
this holds in every state; with reassembly, when the stream so far is a stretch of messages. -/
theorem bind_texts_iff (e e₁ e₁' : Engine) (o o' : Owned) (p : Payload) (c : Cur) (t : Tuple)
    (r : Requests) (pw pw' : r.bind.Password) (row row' : Packet)
    (h : DifferInPassword o o' p c r pw pw') (he : e.reassemble = true → Continues e o c t)
    (hrow : Engine.step e.reassemble e o = .ok (e₁, row))
    (hrow' : Engine.step e.reassemble e o' = .ok (e₁', row')) :
    row.texts = row'.texts ↔ r.Hidden pw pw' := by
  have hx : (Engine.step e.reassemble e o).map Prod.snd = .ok row := by rw [hrow]; rfl
  have hx' : (Engine.step e.reassemble e o').map Prod.snd = .ok row' := by rw [hrow']; rfl
  cases hre : e.reassemble with
  | true =>
      rw [hre] at hx hx'
      rw [(h.rows_deferred (he hre)).texts_iff hx hx', Requests.hidden_iff]
  | false =>
      rw [hre] at hx hx'
      obtain hretells | ⟨hsame, q, hq⟩ := h.rows_direct hre
      · rw [hretells.texts_iff hx hx', Requests.hidden_iff]
      · -- the row of a panic says nothing about the payload
        have heq : row = row' := Except.ok.inj (hx.symm.trans (hsame.trans hx'))
        have hfar := far_of_identify h.port hq
        exact iff_of_true (congrArg Packet.texts heq) (Requests.hidden_of_far pw pw' (by omega))

/-! ### A bind request that shows its password -/

/-- A dissector that neither panics nor gives up lets dispatch go on. -/
theorem exists_identify {payload : Bytes} {sport dport : UInt16}
    (hport : App.OnLdapPort sport dport)
    (haccepts : AppDirectory.Accepts (AppDirectory.ldap payload))
    (hcalm : (AppDirectory.ldap payload).Calm) (s : Sink AppCols) :
    ∃ s', App.identify payload sport dport true s = .ok s' := by
  rw [App.identify_ldap hport haccepts]
  unfold App.directory App.part
  rw [zoom_exec]
  rcases hx : (AppDirectory.ldap payload).exec { stack := s.stack, cols := s.cols.directory }
    with q | x
  · exact absurd hx (hcalm _ q)
  · exact ⟨_, rfl⟩

/-- The first segment of a stream gets a row when its dispatch does not panic. -/
theorem exists_row_of_first {e : Engine} {o : Owned} {p : Payload} {c : Cur} {t : Tuple}
    (hends : EndsAtTcp o p c) (hne : c.rest ≠ []) (he : Continues e o c t)
    (hfirst : (e.streams.entry (Engine.streamKey t)).buf = [])
    (hid : ∀ s, ∃ s', App.identify c.rest p.sport p.dport true s = .ok s') :
    ∃ e₁ row, Engine.step true e o = .ok (e₁, row) := by
  obtain ⟨q, hdata, hrow⟩ := step_row_continues hends hne he
  rw [hfirst, List.nil_append] at hdata
  let pkt := e.numbered (summary o true (.ok ()) (tcpCtx o c)).pkt
  have hsport : pkt.transport.srcPort.getD 0 = p.sport := hends.ports.1
  have hdport : pkt.transport.dstPort.getD 0 = p.dport := hends.ports.2
  obtain ⟨s', hs'⟩ := hid { stack := [], cols := pkt.app }
  have hstream : ∃ row, Engine.dissectStream pkt q = .ok row := by
    unfold Engine.dissectStream dispatch
    dsimp only
    rw [if_neg (by simp [hdata, hne]), hdata, hsport, hdport, hs']
    exact ⟨_, rfl⟩
  obtain ⟨row, hstream⟩ := hstream
  rw [hstream] at hrow
  obtain ⟨⟨e₁, row₁⟩, hstep, -⟩ := map_eq_ok_iff.mp hrow
  exact ⟨e₁, row₁, hstep⟩

end Rows

open AppDirectory (SimpleBind)

/-- A simple bind as `cn=admin,dc=example,dc=com`, with a password of six octets. -/
def adminBind : SimpleBind where
  messageId := { len := [1], val := [1], isLength := .short (by decide) }
  version := { len := [1], val := [3], isLength := .short (by decide) }
  name :=
    { len := [26], val := Text.ascii "cn=admin,dc=example,dc=com", isLength := .short (by decide) }
  size := 6
  pwLen := [6]
  extra := []
  controls := []
  opLen := [0x27]
  frameLen := [0x2c]
  pw_isLength := .short (by decide)
  op_isLength := .short (by decide)
  frame_isLength := .short (by decide)

def adminRequests : Requests := { earlier := [], bind := adminBind, later := [] }

/-- Two passwords. -/
def secret : adminRequests.bind.Password := ⟨Text.ascii "secret", rfl⟩

def hunter : adminRequests.bind.Password := ⟨Text.ascii "hunter", rfl⟩

/-- A segment from port 50000 to port 389 with a bind request: Ethernet, IPv4, TCP. -/
def adminFrame (pw : adminRequests.bind.Password) : Owned where
  capLen := 100
  origLen := 100
  linktype := 1
  data :=
    [0x00, 0x11, 0x22, 0x33, 0x44, 0x55, 0x66, 0x77, 0x88, 0x99, 0xaa, 0xbb, 0x08, 0x00,
      0x45, 0, 0, 86, 0, 1, 0x40, 0, 64, 6, 0, 0, 10, 0, 0, 5, 10, 0, 0, 9,
      0xc3, 0x50, 0x01, 0x85, 0, 0, 0, 0, 0, 0, 0, 1, 0x50, 0x18, 0xff, 0xff, 0, 0, 0, 0] ++
    Requests.payload pw
  data_le := by
    rw [List.length_append, Requests.length_payload]
    decide

theorem sameRecord_adminFrame (pw pw' : adminRequests.bind.Password) :
    SameRecord (adminFrame pw) (adminFrame pw') := ⟨rfl, rfl, rfl, rfl, rfl, rfl⟩

def toLdap : Payload := { isTcp := true, sport := 50000, dport := 389 }

def ldapTuple : Tuple :=
  { srcIp := .v4 0x0a000005, dstIp := .v4 0x0a000009, srcPort := 50000, dstPort := 389, proto := 6 }

/-- Where the walk of the frame ends. -/
def secretCur : Cur := { base := 0, data := (adminFrame secret).data, pos := 54, pos_le := by decide }

theorem differInPassword_admin :
    DifferInPassword (adminFrame secret) (adminFrame hunter) toLdap secretCur adminRequests secret
      hunter where
  ends := ⟨rfl, rfl⟩
  port := .inl rfl
  payload := List.drop_left' rfl
  record := sameRecord_adminFrame secret hunter
  data := by decide +kernel

theorem continues_admin : Continues (Engine.new {}) (adminFrame secret) secretCur ldapTuple where
  whole := rfl
  tuple := rfl
  atEnd := ⟨by decide, .inl ⟨by decide, by decide⟩⟩
  inOrder := Engine.inOrder_new (by decide) (by decide)
  messages := ⟨[], rfl⟩

/-- Both frames get a row. -/
theorem exists_rows_admin [Hashes] :
    (∃ e row, Engine.step true (Engine.new {}) (adminFrame secret) = .ok (e, row)) ∧
      ∃ e row, Engine.step true (Engine.new {}) (adminFrame hunter) = .ok (e, row) := by
  have hid : ∀ (pw : adminRequests.bind.Password) (s : Sink AppCols),
      ∃ s', App.identify (Requests.payload pw) toLdap.sport toLdap.dport true s = .ok s' := by
    intro pw
    refine exists_identify (.inl rfl) (Requests.accepts_ldap pw) fun s q h => ?_
    exact absurd (Requests.far_of_panic h) (by decide)
  have h := differInPassword_admin
  obtain ⟨c', hwalk, hrest'⟩ := h.sameWalk
  have hne : ∀ pw : adminRequests.bind.Password, Requests.payload pw ≠ [] := Requests.payload_ne_nil
  constructor
  · exact exists_row_of_first h.ends (h.payload ▸ hne secret) continues_admin rfl
      (h.payload ▸ hid secret)
  · exact exists_row_of_first hwalk.ends (hrest' ▸ hne hunter) (h.continues continues_admin hwalk) rfl
      (hrest' ▸ hid hunter)

/-- The theorem applies to the two frames. -/
theorem bind_texts_iff_admin : DifferInPassword (adminFrame secret) (adminFrame hunter) toLdap
      secretCur adminRequests secret hunter ∧
    ∀ _ : Hashes, ∃ (e e' : Engine) (row row' : Packet),
      Engine.step true (Engine.new {}) (adminFrame secret) = .ok (e, row) ∧
      Engine.step true (Engine.new {}) (adminFrame hunter) = .ok (e', row') ∧
      (row.texts = row'.texts ↔ adminRequests.Hidden secret hunter) := by
  refine ⟨differInPassword_admin, fun _ => ?_⟩
  obtain ⟨⟨e, row, hrow⟩, e', row', hrow'⟩ := exists_rows_admin
  exact ⟨e, e', row, row', hrow, hrow', bind_texts_iff (Engine.new {}) e e' (adminFrame secret)
    (adminFrame hunter) toLdap secretCur ldapTuple adminRequests secret hunter row row'
    differInPassword_admin (fun _ => continues_admin) hrow hrow'⟩

/-- **A bind request that shows its password**: the rows of the two frames have different texts. -/
theorem bindRequest_shows_password :
    DifferInPassword (adminFrame secret) (adminFrame hunter) toLdap secretCur adminRequests secret
      hunter ∧
    ∀ _ : Hashes, ∃ (e e' : Engine) (row row' : Packet),
      Engine.step true (Engine.new {}) (adminFrame secret) = .ok (e, row) ∧
      Engine.step true (Engine.new {}) (adminFrame hunter) = .ok (e', row') ∧
      row.texts ≠ row'.texts := by
  refine ⟨differInPassword_admin, fun _ => ?_⟩
  obtain ⟨⟨e, row, hrow⟩, e', row', hrow'⟩ := exists_rows_admin
  refine ⟨e, e', row, row', hrow, hrow', fun htexts => ?_⟩
  have hx : (Engine.step true (Engine.new {}) (adminFrame secret)).map Prod.snd = .ok row := by
    rw [hrow]
    rfl
  have hx' : (Engine.step true (Engine.new {}) (adminFrame hunter)).map Prod.snd = .ok row' := by
    rw [hrow']
    rfl
  have hretells := differInPassword_admin.rows_deferred continues_admin
  rw [hretells.texts_iff hx hx', Requests.hidden_iff] at htexts
  exact absurd htexts.2 (by decide)

end PcapRacer
